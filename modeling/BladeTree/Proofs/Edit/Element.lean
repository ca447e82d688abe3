import BladeTree.Proofs.Document.Depth
import BladeTree.Proofs.Edit.Parts
import BladeTree.Proofs.Edit.Replacing

namespace BladeTree

/-! Calls on one element -/

theorem EditCall.replacement_record {c : EditCall} (hc : c.target = .startTag) (e : NodeEdits) :
    (c.record e).replacement = e.replacement := by
  cases c with
  | wrapWith n =>
      unfold target at hc
      simp only at hc
      split at hc <;> cases hc
  | setAttribute | removeAttribute | addClass | removeClass | renameTag => rfl
  | _ => cases hc

namespace Edits

theorem get?_modify (es : Edits) (id i : Nat) (f : NodeEdits → NodeEdits)
    (hid : id < es.slots.size) :
    (es.modify id f).get? i = if i = id then some (f ((es.get? id).getD .empty)) else es.get? i := by
  unfold modify get?
  rw [Array.getElem?_modify]
  by_cases h : id = i
  · subst h
    rw [if_pos rfl, if_pos rfl, getElem?_pos es.slots id hid]
    rfl
  · rw [if_neg h, if_neg (Ne.symm h)]

theorem get?_none (d : Document) (i : Nat) : (none d).get? i = .none := by
  unfold none get?
  rw [Array.getElem?_replicate]
  split <;> rfl

/-- These are the edits of one node, and no other node has any. -/
structure OnlyAt (es : Edits) (d : Document) (id : Nat) (e : NodeEdits) : Prop where
  size : es.slots.size = d.nodes.size
  own : (es.get? id).getD .empty = e
  others : ∀ i, i ≠ id → es.get? i = .none

variable {d : Document} {id : Nat} {e : NodeEdits} {es : Edits}

theorem onlyAt_none (d : Document) (id : Nat) : (none d).OnlyAt d id .empty where
  size := Array.size_replicate
  own := by rw [get?_none]; rfl
  others i _ := get?_none d i

section Apply

variable (hid : d.kind id = .element)
include hid

theorem OnlyAt.apply_eq (h : es.OnlyAt d id e) (he : e.replacement = .none) {c : EditCall}
    (hc : c.target = .startTag) : es.apply d id c = es.modify id (c.record ·) := by
  have hreplaced : es.isReplaced id = false := by
    unfold isReplaced
    cases hown : es.get? id with
    | none => rfl
    | some e' =>
        have heq := h.own
        rw [hown, Option.getD_some] at heq
        rw [heq, Option.any_some, he]
        rfl
  have hinside : es.isInsideReplaced d id = false := by
    unfold isInsideReplaced
    rw [List.any_eq_false]
    intro p hp
    unfold isReplaced
    rw [h.others p (Document.lt_of_mem_ancestors hp).ne]
    nofun
  unfold Edits.apply
  rw [hc, if_pos]
  unfold accepts isGone
  rw [hid, hreplaced, hinside]
  rfl

variable (hlt : id < d.nodes.size)
include hlt

theorem OnlyAt.apply (h : es.OnlyAt d id e) (he : e.replacement = .none) {c : EditCall}
    (hc : c.target = .startTag) : (es.apply d id c).OnlyAt d id (c.record e) ∧
      ((es.apply d id c).get? id).isSome := by
  have hsize : id < es.slots.size := h.size ▸ hlt
  rw [h.apply_eq hid he hc]
  refine ⟨⟨?_, ?_, fun i hi => ?_⟩, ?_⟩
  · exact Array.size_modify.trans h.size
  · rw [get?_modify _ _ _ _ hsize, if_pos rfl, h.own, Option.getD_some]
  · rw [get?_modify _ _ _ _ hsize, if_neg hi]
    exact h.others i hi
  · rw [get?_modify _ _ _ _ hsize, if_pos rfl, Option.isSome_some]

theorem OnlyAt.foldl (h : es.OnlyAt d id e) (he : e.replacement = .none) {calls : List EditCall}
    (hcalls : ∀ c ∈ calls, c.target = .startTag) :
    (calls.foldl (Edits.apply · d id) es).OnlyAt d id (calls.foldl EditCall.record e) ∧
      ((es.get? id).isSome ∨ calls ≠ [] →
        ((calls.foldl (Edits.apply · d id) es).get? id).isSome) := by
  induction calls generalizing es e with
  | nil => exact ⟨h, fun hsome => hsome.resolve_right (absurd rfl)⟩
  | cons c calls ih =>
      obtain ⟨hc, hrest⟩ := List.forall_mem_cons.1 hcalls
      obtain ⟨h', hsome⟩ := h.apply hid hlt he hc
      have he' : (c.record e).replacement = .none := by
        rw [EditCall.replacement_record hc]
        exact he
      obtain ⟨hfinal, hsome'⟩ := ih h' he' hrest
      exact ⟨hfinal, fun _ => hsome' (.inl hsome)⟩

end Apply

end Edits

/-! What is written of the element -/

namespace NodeEdits

structure InStartTag (e : NodeEdits) : Prop where
  before : e.before = []
  after : e.after = []
  surrounds : e.surrounds = []
  replacement : e.replacement = none
  changes : e.changesStartTag

end NodeEdits

namespace Document

variable {o : ParseOptions} {text : String} {d : Document} {es : Edits} {e : NodeEdits}
  {id j p : Nat} {isMarked : Nat → Bool}

theorem writeEdited_of_inStartTag (he : e.InStartTag) (hid : d.kind id = .element)
    (ws : List Written) : d.writeEdited e id ws = d.editElement e id ws := by
  unfold writeEdited writeBody writeCore
  rw [he.before, he.after, he.surrounds, he.replacement]
  simp only [if_pos (And.intro hid he.changes)]
  simp [NewNode.piecesOf]

theorem writeAll_forest (hf : d.Forward)
    (hplain : ∀ c ∈ d.siblingsFrom j, es.get? c = none ∧ isMarked c = false) :
    d.writeAll es isMarked (d.forest j) = (d.siblingsFrom j).map d.plainWritten := by
  induction hn : d.nodes.size - j using Nat.strong_induction_on generalizing j with
  | _ n ih =>
      rw [siblingsFrom_eq hf] at hplain
      obtain ⟨⟨hedit, hmark⟩, hrest⟩ := List.forall_mem_cons.1 hplain
      have hwrite : d.write es isMarked (d.tree j) = [.plain (d.text j)] := by
        rw [tree_eq hf, write, hedit, hmark]
        rfl
      rw [forest_eq hf, siblingsFrom_eq hf, writeAll, List.map_cons, hwrite, id_tree]
      congr 1
      cases hs : (d.node j).nextSibling with
      | none => rfl
      | some next =>
          obtain ⟨hlt, hsize⟩ := hf.nextSibling j next hs
          rw [hs] at hrest
          exact ih _ (by omega) hrest rfl

theorem writeAll_children (hf : d.Forward)
    (hplain : ∀ c ∈ d.children id, es.get? c = none ∧ isMarked c = false) :
    d.writeAll es isMarked ((d.node id).firstChild.elim [] d.forest) =
      (d.children id).map d.plainWritten := by
  unfold children at hplain ⊢
  cases hc : (d.node id).firstChild with
  | none => rfl
  | some first =>
      rw [hc] at hplain
      exact writeAll_forest hf hplain

theorem writeAll_below (hw : d.WellFormed) (hbelow : ∀ x, id ∈ d.ancestors x → es.get? x = none) :
    d.writeAll es ((es.marks d).getD · false) ((d.node id).firstChild.elim [] d.forest) =
      (d.children id).map d.plainWritten := by
  refine writeAll_children hw.forward fun c hc => ?_
  have hmem : id ∈ d.ancestors c := by
    rw [ancestors_eq hw.forward ((mem_children_iff hw).1 hc)]
    exact List.mem_cons_self
  refine ⟨hbelow c hmem, eq_false_of_ne_true fun hmark => ?_⟩
  obtain ⟨-, x, -, hx, hcx⟩ := (es.marks_getD d c).1 hmark
  have hidx : id ∈ d.ancestors x := by
    rcases List.mem_cons.1 hcx with rfl | habove
    · exact hmem
    · exact mem_ancestors_trans hmem habove
  rw [hbelow x hidx] at hx
  cases hx

section OnlyAt

variable (h : es.OnlyAt d id e)
include h

theorem pieces_of_onlyAt (hw : d.WellFormed) (hsome : (es.get? id).isSome) (he : e.InStartTag)
    (hid : d.kind id = .element) :
    d.pieces es id = d.editElement e id ((d.children id).map d.plainWritten) := by
  have hedit : es.get? id = some e := by
    obtain ⟨e', he'⟩ := Option.isSome_iff_exists.1 hsome
    have hown := h.own
    rw [he', Option.getD_some] at hown
    rw [he', hown]
  unfold pieces
  rw [tree_eq hw.forward, write, hedit]
  simp only
  rw [writeAll_below hw fun x hx => h.others x (lt_of_mem_ancestors hx).ne',
    writeEdited_of_inStartTag he hid]

theorem topmost_of_onlyAt (hlt : id < d.nodes.size) (hsome : (es.get? id).isSome) :
    d.topmost es = [id] := by
  have htop (x : Nat) : d.isTopmost es x = (x == id) := by
    rw [Bool.eq_iff_iff, beq_iff_eq, isTopmost_iff]
    constructor
    · rintro ⟨hx, -⟩
      exact by_contra fun hne => by simp [h.others x hne] at hx
    · rintro rfl
      exact ⟨hsome, fun p hp => h.others p (lt_of_mem_ancestors hp).ne⟩
  have hone : (List.range d.nodes.size).count id = 1 :=
    List.count_eq_one_of_mem List.nodup_range (List.mem_range.2 hlt)
  unfold topmost
  rw [List.filter_congr fun x _ => htop x, List.filter_beq, hone]
  rfl

end OnlyAt

/-! Attributes that are removed or set -/

section Calls

variable (h : parse o text = .ok d)
  (hx : ∀ x ∈ o.lexerExtensions, x.OnBoundaries (.ofString text))
include h hx

/-- The tokens of a parsed document are its source, and its tree lies over all of them. -/
theorem layout_of_parse : d.toTokenized.Whole ∧ (BladeTree.outline d.nodes).Growing [] d.size ∧
    d.WellFormed ∧ d.source.text = text := by
  obtain ⟨lexed, b, hsound, hbuilt, rfl⟩ := exists_built_of_parse h
  exact ⟨hsound.tokenized_whole hx, hbuilt.growing, wellFormed_of_built hbuilt rfl, rfl⟩

variable (hid : d.kind id = .element)
include hid

theorem text_eq_withParts : text = d.withParts id (d.parts id) := by
  obtain ⟨hw, hg, hwf, hsource⟩ := layout_of_parse h hx
  have hsolid : d.Solid id := solid_of_parse h (by rw [hid]; nofun)
  have hordered : (d.node id).tokenStart ≤ (d.node id).tokenEnd := hg.ordered id
  have hend : (d.node id).tokenEnd ≤ d.size :=
    hg.taken id (lt_size_of_kind (by rw [show (slot d.nodes id).kind = _ from hid]; nofun))
  unfold withParts parts
  rw [concat_elementParts hw (placed_children hwf hsolid hordered),
    hw.textBetween_append hordered hend, hw.textBetween_append (Nat.zero_le _) (hordered.trans hend),
    hw.textBetween_all, hsource]

/-- Calls on the start tag of one element rebuild that element and keep everything around it. -/
theorem edit_startTag {calls : List EditCall} (hne : calls ≠ [])
    (hcalls : ∀ c ∈ calls, c.target = .startTag) {e : NodeEdits} (he : e.InStartTag)
    (hrecord : calls.foldl EditCall.record .empty = e) :
    d.edit (calls.foldl (Edits.apply · d id) (.none d)) =
      d.textBetween 0 (d.node id).tokenStart ++
        (Piece.concat (d.editElement e id ((d.children id).map d.plainWritten)) ++
          d.textBetween (d.node id).tokenEnd d.size) := by
  obtain ⟨hw, hg, hwf, -⟩ := layout_of_parse h hx
  have hlt : id < d.nodes.size :=
    lt_size_of_kind (by rw [show (slot d.nodes id).kind = _ from hid]; nofun)
  obtain ⟨honly, hsome⟩ := (Edits.onlyAt_none d id).foldl hid hlt rfl hcalls
  have hsome := hsome (.inr hne)
  rw [hrecord] at honly
  have hpieces := pieces_of_onlyAt honly hwf hsome he hid
  have htop := topmost_of_onlyAt honly hlt hsome
  rw [← hpieces, edit_eq_replacing hw hg hwf.covers.2, htop, replacing, replacing]
  rw [htop, List.forall_mem_singleton, hpieces]
  exact isDirective_editElement e fun part hpart piece => isDirective_of_mem_parts hpart

/-- Where one attribute is set, it is rewritten in its place, or a new one goes to the end of the
start tag, before a blank there. Nothing else changes. -/
theorem edit_setAttribute (name value : String) {inTag rest : List ElementPart}
    (hspan : (d.parts id).span (d.isBeforeTagEnd (d.startTagEnd id)) = (inTag, rest)) :
    d.edit ((Edits.none d).apply d id (.setAttribute name value)) =
      d.textBetween 0 (d.node id).tokenStart ++ (Piece.concat (
        (beforeBlank (d.isTagBlank (d.startTagEnd id)) inTag).flatMap
          (d.settingPieces name value) ++
        (if (d.attribute? id name).isNone then
          [.plain (NewNode.attributeText (name, some value))] else []) ++
        (lastBlank (d.isTagBlank (d.startTagEnd id)) inTag ++ rest).flatMap
          (d.settingPieces name value)) ++
        d.textBetween (d.node id).tokenEnd d.size) := by
  have hcalls : ∀ c ∈ [EditCall.setAttribute name value], c.target = .startTag := by
    intro c hc
    rw [List.mem_singleton.1 hc]
    rfl
  rw [← editElement_setting name value id _ hspan]
  exact edit_startTag h hx hid (List.cons_ne_nil _ _) hcalls ⟨rfl, rfl, rfl, rfl, rfl⟩ rfl

/-- Where attributes are removed, all that is lost are these attributes and the blanks right before
them. -/
theorem edit_removeAttributes {patterns : List String} (hne : patterns ≠ []) :
    text = d.withParts id (d.parts id) ∧
      d.edit ((patterns.map .removeAttribute).foldl (Edits.apply · d id) (.none d)) =
        d.withParts id (remaining (d.losesPart (.removing patterns))
          (d.isTagBlank (d.startTagEnd id)) (d.parts id)) ∧
      (remaining (d.losesPart (.removing patterns)) (d.isTagBlank (d.startTagEnd id))
          (d.parts id)).filterMap child? =
        (d.children id).filter fun c =>
          !(d.kind c == .attr && patterns.any (globMatch · (d.attributeName c))) := by
  have hchanges : (NodeEdits.removing patterns).changesStartTag := by
    obtain ⟨pattern, rest, rfl⟩ := List.exists_cons_of_ne_nil hne
    rfl
  have hcalls : ∀ c ∈ patterns.map EditCall.removeAttribute, c.target = .startTag := by
    intro c hc
    obtain ⟨pattern, -, rfl⟩ := List.mem_map.1 hc
    rfl
  have hnonempty : patterns.map EditCall.removeAttribute ≠ [] := by
    rwa [Ne, List.map_eq_nil_iff]
  refine ⟨text_eq_withParts h hx hid, ?_, children_remaining (wellFormed_of_parse h)
    (solid_of_parse h (by rw [hid]; nofun)) (.removing patterns) _⟩
  rw [edit_startTag h hx hid hnonempty hcalls ⟨rfl, rfl, rfl, rfl, hchanges⟩
    (NodeEdits.record_removing patterns), editElement_removing]
  rfl

end Calls

/-- A blank that goes with an attribute may be all that is between two pieces that stay. -/
example : (parse (.ofDirectives []) "<a b=\"1\"c=\"2\"></a>").toOption.map
      (fun d => d.edit ((Edits.none d).apply d 1 (.removeAttribute "b"))) =
    some "<ac=\"2\"></a>" := by cbv

end Document
end BladeTree
