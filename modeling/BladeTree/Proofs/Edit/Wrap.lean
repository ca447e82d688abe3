import BladeTree.Proofs.Edit.Calls
import BladeTree.Proofs.Edit.WrittenOut

namespace BladeTree

namespace NewNode

/-- A directive block, or an element with an end tag, that has no children yet. -/
inductive IsWrapper : NewNode → Prop
  | element (name : String) (attributes : List (String × Option String)) :
      IsWrapper (.element name attributes [] false)
  | block (name : String) (args : Option String) : IsWrapper (.block name args [])

/-- A node inside wrappers, each of which is inside the next. -/
def wrap (inner : NewNode) (wrappers : List NewNode) : NewNode := wrappers.foldl addChild inner

theorem IsWrapper.exists_surround {w : NewNode} (h : w.IsWrapper) (inner : NewNode) :
    ∃ s, w.surround? = some s ∧
      (addChild inner w).pieces = s.before :: (inner.pieces ++ [s.after]) := by
  cases h with
  | element name attributes =>
      exact ⟨_, rfl, by simp [addChild, pieces, piecesOf, Surround.before, Surround.after,
        Piece.plain]⟩
  | block name args =>
      exact ⟨_, rfl, by simp [addChild, pieces, piecesOf, Surround.before, Surround.after,
        Piece.directive]⟩

theorem pieces_wrap {wrappers : List NewNode} (h : ∀ w ∈ wrappers, w.IsWrapper)
    (inner : NewNode) : (inner.wrap wrappers).pieces =
      (wrappers.filterMap surround?).reverse.map (·.before) ++ inner.pieces ++
        (wrappers.filterMap surround?).map (·.after) := by
  induction wrappers generalizing inner with
  | nil => simp [wrap]
  | cons w ws ih =>
      obtain ⟨hw, hws⟩ := List.forall_mem_cons.1 h
      obtain ⟨s, hs, hpieces⟩ := hw.exists_surround inner
      have hwrap : inner.wrap (w :: ws) = (addChild inner w).wrap ws := rfl
      rw [hwrap, ih hws, hpieces, List.filterMap_cons_some hs]
      simp

end NewNode

namespace NodeEdits

def surrounding (ss : List Surround) : NodeEdits := { empty with surrounds := ss }

def replacing (ns : List NewNode) : NodeEdits := { empty with replacement := some (.nodes ns) }

end NodeEdits

namespace Edits

variable {d : Document} {es : Edits} {id : Nat} {ss : List Surround}

theorem isReplaced_of_surrounding (h : es.get? id = some (.surrounding ss)) :
    es.isReplaced id = false := by
  rw [isReplaced, h]
  rfl

theorem get?_wrapWith {w : NewNode} {s : Surround} (hs : w.surround? = some s)
    (hlive : es.accepts d id .live) (hid : id < es.slots.size)
    (hown : (es.get? id).getD .empty = .surrounding ss) :
    (es.apply d id (.wrapWith w)).get? id = some (.surrounding (ss ++ [s])) := by
  have htarget : (EditCall.wrapWith w).target = .live := by simp [EditCall.target, hs]
  have hrecord : EditCall.record (.surrounding ss) (.wrapWith w) = .surrounding (ss ++ [s]) := by
    simp [EditCall.record, NodeEdits.surrounding, hs]
  rw [get?_apply, htarget, if_pos ⟨rfl, hid, hlive⟩, hown, hrecord]

theorem accepts_wrapWith {w : NewNode} {s : Surround} (hs : w.surround? = some s)
    (hlive : es.accepts d id .live) (hid : id < es.slots.size)
    (hown : (es.get? id).getD .empty = .surrounding ss) :
    (es.apply d id (.wrapWith w)).accepts d id .live := by
  have hown' := get?_wrapWith hs hlive hid hown
  have hbefore : es.isReplaced id = false := by
    simp only [accepts, isGone, Bool.not_eq_true', Bool.or_eq_false_iff] at hlive
    exact hlive.1
  rw [← hlive]
  apply accepts_congr
  intro x hx
  rcases List.mem_cons.1 hx with rfl | hx
  · rw [isReplaced_of_surrounding hown', hbefore]
  · rw [isReplaced, isReplaced, get?_apply_of_ne (Document.lt_of_mem_ancestors hx).ne]

theorem wrapAll_eq_self {ws : List NewNode} (hws : ∀ w ∈ ws, w.IsWrapper)
    (h : ¬ (es.accepts d id .live ∧ id < es.slots.size)) :
    (ws.map .wrapWith).foldl (Edits.apply · d id) es = es := by
  induction ws with
  | nil => rfl
  | cons w ws ih =>
      obtain ⟨hw, hrest⟩ := List.forall_mem_cons.1 hws
      obtain ⟨s, hs, -⟩ := hw.exists_surround w
      have htarget : (EditCall.wrapWith w).target = .live := by simp [EditCall.target, hs]
      rw [List.map_cons, List.foldl_cons, apply_eq_self (by rwa [htarget]), ih hrest]

theorem get?_wrapAll {ws : List NewNode} (hws : ∀ w ∈ ws, w.IsWrapper) (hne : ws ≠ [])
    (hlive : es.accepts d id .live) (hid : id < es.slots.size)
    (hown : (es.get? id).getD .empty = .surrounding ss) (x : Nat) :
    ((ws.map .wrapWith).foldl (Edits.apply · d id) es).get? x =
      if x = id then some (.surrounding (ss ++ ws.filterMap NewNode.surround?))
      else es.get? x := by
  induction ws generalizing es ss with
  | nil => exact absurd rfl hne
  | cons w ws ih =>
      obtain ⟨hw, hrest⟩ := List.forall_mem_cons.1 hws
      obtain ⟨s, hs, -⟩ := hw.exists_surround w
      have hown' := get?_wrapWith hs hlive hid hown
      rw [List.map_cons, List.foldl_cons, List.filterMap_cons_some hs]
      by_cases hmore : ws = []
      · subst hmore
        rw [List.map_nil, List.foldl_nil, List.filterMap_nil]
        by_cases hx : x = id
        · rw [if_pos hx, hx, hown']
        · rw [if_neg hx, get?_apply_of_ne hx]
      · have hlive' := accepts_wrapWith hs hlive hid hown
        have hid' : id < (es.apply d id (.wrapWith w)).slots.size := by rwa [size_apply]
        rw [ih hrest hmore hlive' hid' (by rw [hown', Option.getD_some]), List.append_assoc]
        by_cases hx : x = id
        · rw [if_pos hx, if_pos hx]
          rfl
        · rw [if_neg hx, if_neg hx, get?_apply_of_ne hx]

end Edits

namespace Document

variable {o : ParseOptions} {text : String} {d : Document} {es : Edits} {id : Nat}
  {wrappers : List NewNode}

theorem writeEdited_surrounding (ss : List Surround) (id : Nat) (ws : List Written) :
    d.writeEdited (.surrounding ss) id ws = ss.reverse.map (·.before) ++
      d.interleave (d.node id).tokenStart (d.node id).tokenEnd ws ++ ss.map (·.after) := by
  have hchanges : (NodeEdits.surrounding ss).changesStartTag = false := rfl
  have hcore : d.writeBody (.surrounding ss) id ws =
      d.interleave (d.node id).tokenStart (d.node id).tokenEnd ws := by
    rw [writeBody, writeCore, hchanges]
    exact if_neg fun h => Bool.noConfusion h.2
  rw [writeEdited, hcore]
  simp [NodeEdits.surrounding, NodeEdits.empty, NewNode.piecesOf]

theorem writeEdited_replacing (ns : List NewNode) (id : Nat) (ws : List Written) :
    d.writeEdited (.replacing ns) id ws = NewNode.piecesOf ns := by
  simp [writeEdited, writeBody, NodeEdits.replacing, NodeEdits.empty, NewNode.piecesOf]

theorem alike_wrapped (hw : d.toTokenized.Whole)
    (hg : (BladeTree.outline d.nodes).Growing [] d.size) {es es' : Edits}
    (hown : es.get? id = some (.surrounding (wrappers.filterMap NewNode.surround?)))
    (hown' : es'.get? id = some (.replacing [(NewNode.raw (d.text id)).wrap wrappers]))
    (hfree : es.FreeBelow d id) (hwrappers : ∀ w ∈ wrappers, w.IsWrapper) :
    Piece.Alike (d.writtenOut es id) (d.writtenOut es' id) := by
  have hf := forward_of_linked hg.linked
  rw [writtenOut_of_some hf hown, writtenOut_of_some hf hown', writeEdited_surrounding,
    writeEdited_replacing, NewNode.piecesOf, NewNode.piecesOf, List.append_nil,
    NewNode.pieces_wrap hwrappers, NewNode.pieces]
  exact ((Piece.Alike.refl _).append (alike_text hw hg hfree)).append (.refl _)

/-- Wrappers around a node one after another give what they give when they are put together
first and take the place of the node, with its source inside. -/
theorem edit_wrapWith (h : parse o text = .ok d)
    (hx : ∀ x ∈ o.lexerExtensions, x.OnBoundaries (.ofString text)) (hnone : es.get? id = none)
    (hfree : es.FreeBelow d id) (hwrappers : ∀ w ∈ wrappers, w.IsWrapper) (hne : wrappers ≠ []) :
    d.edit ((wrappers.map .wrapWith).foldl (Edits.apply · d id) es) =
      d.edit (es.apply d id (.replaceWith [(NewNode.raw (d.text id)).wrap wrappers])) := by
  obtain ⟨hw, hg, hwf, -⟩ := layout_of_parse h hx
  by_cases htaken : es.accepts d id .live ∧ id < es.slots.size
  · obtain ⟨hlive, hid⟩ := htaken
    have hown : (es.get? id).getD .empty = .surrounding [] := by
      rw [hnone]
      rfl
    have hwrapped := Edits.get?_wrapAll hwrappers hne hlive hid hown
    have hreplaced := Edits.get?_apply es d id
      (.replaceWith [(NewNode.raw (d.text id)).wrap wrappers])
    generalize (wrappers.map EditCall.wrapWith).foldl (Edits.apply · d id) es = es₁ at hwrapped ⊢
    generalize es.apply d id _ = es₂ at hreplaced ⊢
    have hagree : es₁.AgreeOutside es₂ d id := by
      intro x hx
      have hxid : x ≠ id := fun hxid => hx (hxid ▸ List.mem_cons_self)
      rw [hwrapped, hreplaced, if_neg hxid, if_neg fun h => hxid h.1]
    have hown₁ : es₁.get? id = some (.surrounding (wrappers.filterMap NewNode.surround?)) := by
      rw [hwrapped, if_pos rfl, List.nil_append]
    have hown₂ : es₂.get? id = some (.replacing [(NewNode.raw (d.text id)).wrap wrappers]) := by
      rw [hreplaced, if_pos ⟨rfl, hid, hlive⟩, hnone]
      rfl
    have hbelow : es₁.FreeBelow d id := by
      intro x hx
      rw [hwrapped, if_neg (lt_of_mem_ancestors hx).ne', hfree x hx]
    exact edit_eq_of_alike hw hg hwf.covers.2 hagree
      (alike_wrapped hw hg hown₁ hown₂ hbelow hwrappers)
  · rw [Edits.wrapAll_eq_self hwrappers htaken, Edits.apply_eq_self htaken]

def nestedWrappers : List NewNode := [.element "li" [] [] false, .block "if" (some "a") []]

theorem edit_wrapWith_nested : ∃ d,
    parse (.ofDirectives []) "x<b>y</b>z" = .ok d ∧
      d.edit ((nestedWrappers.map .wrapWith).foldl (Edits.apply · d 2) (.none d)) =
        d.edit ((Edits.none d).apply d 2
          (.replaceWith [(NewNode.raw (d.text 2)).wrap nestedWrappers])) := by
  have hread : (parse (.ofDirectives []) "x<b>y</b>z").toBool := by cbv
  obtain ⟨d, hd⟩ := exists_eq_ok_of_toBool hread
  have hwrappers : ∀ w ∈ nestedWrappers, w.IsWrapper :=
    List.forall_mem_cons.2 ⟨.element .., List.forall_mem_singleton.2 (.block ..)⟩
  exact ⟨d, hd, edit_wrapWith hd (fun _ hx => absurd hx List.not_mem_nil) (Edits.get?_none d 2)
    (fun x _ => Edits.get?_none d x) hwrappers (List.cons_ne_nil _ _)⟩

end Document
end BladeTree
