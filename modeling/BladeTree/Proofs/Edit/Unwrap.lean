import BladeTree.Proofs.Edit.Element
import BladeTree.Proofs.Edit.Visit

namespace BladeTree
namespace Document

variable {o : ParseOptions} {text tag : String} {d : Document} {es : Edits} {id n : Nat}

def isNamed (d : Document) (tag : String) (id : Nat) : Bool :=
  d.kind id == .element && globMatch tag (d.elementName id)

def isOutermost (d : Document) (tag : String) (id : Nat) : Bool :=
  d.isNamed tag id && (d.ancestors id).all fun p => !d.isNamed tag p

def outermost (d : Document) (tag : String) : List Nat :=
  (List.range d.nodes.size).filter (d.isOutermost tag)

theorem isOutermost_iff : d.isOutermost tag id ↔
    d.isNamed tag id ∧ ∀ p ∈ d.ancestors id, d.isNamed tag p = false := by
  simp [isOutermost]

theorem isElementLike_eq (tag : String) (s : Site) :
    Recipe.isElementLike tag s = s.document.isNamed tag s.id := by
  unfold Recipe.isElementLike Site.elementName? Site.isElement isNamed Site.kind
  cases s.document.kind s.id == .element with
  | true => rfl
  | false => rfl

def unwrapCalls (d : Document) (tag : String) (id : Nat) : List EditCall :=
  if d.isNamed tag id then [.unwrap] else []

theorem records_unwrapElements (d : Document) (tag : String) :
    (Recipe.unwrapElements tag).visitor.Records d (d.unwrapCalls tag) := by
  refine Recipe.records (fun _ => nofun) fun s hdocument => ?_
  rw [Recipe.elementCalls, isElementLike_eq, hdocument, unwrapCalls]

theorem any_isOutermost (tag : String) (id : Nat) :
    (d.ancestors id).any (d.isOutermost tag) = (d.ancestors id).any (d.isNamed tag) := by
  rw [Bool.eq_iff_iff, List.any_eq_true, List.any_eq_true]
  constructor
  · rintro ⟨p, hp, hout⟩
    exact ⟨p, hp, (isOutermost_iff.1 hout).1⟩
  · rintro ⟨p, hp, hnamed⟩
    induction p using Nat.strong_induction_on with
    | _ p ih =>
        by_cases hfree : ∀ q ∈ d.ancestors p, d.isNamed tag q = false
        · exact ⟨p, hp, isOutermost_iff.2 ⟨hnamed, hfree⟩⟩
        · push Not at hfree
          obtain ⟨q, hq, hqnamed⟩ := hfree
          exact ih q (lt_of_mem_ancestors hq) (mem_ancestors_trans hq hp)
            (Bool.eq_true_of_not_eq_false hqnamed)

end Document

def NodeEdits.unwrapping : NodeEdits := EditCall.unwrap.record .empty

namespace Edits

variable {d : Document} {es : Edits} {tag : String} {id n : Nat}

/-- Of the nodes before the `n`th exactly the outermost elements of the pattern are unwrapped. -/
structure Unwraps (es : Edits) (d : Document) (tag : String) (n : Nat) : Prop where
  size : es.slots.size = d.nodes.size
  get : ∀ i, es.get? i = if i < n ∧ d.isOutermost tag i then some .unwrapping else .none

theorem Unwraps.isReplaced (h : es.Unwraps d tag n) (id : Nat) :
    es.isReplaced id = (decide (id < n) && d.isOutermost tag id) := by
  unfold Edits.isReplaced
  rw [h.get id]
  split
  · rename_i hid
    rw [decide_eq_true hid.1, hid.2]
    rfl
  · rename_i hid
    rw [Option.any_none, eq_comm, Bool.and_eq_false_iff, decide_eq_false_iff_not]
    exact not_and_or.1 hid |>.imp_right Bool.eq_false_of_not_eq_true

/-- A node is gone for later calls exactly if it is inside an element of the pattern. -/
theorem Unwraps.isGone (h : es.Unwraps d tag n) :
    es.isGone d n = (d.ancestors n).any (d.isNamed tag) := by
  have hinside : es.isInsideReplaced d n = (d.ancestors n).any (d.isOutermost tag) := by
    unfold isInsideReplaced
    rw [Bool.eq_iff_iff, List.any_eq_true, List.any_eq_true]
    refine exists_congr fun p => and_congr_right fun hp => ?_
    rw [h.isReplaced, decide_eq_true (Document.lt_of_mem_ancestors hp), Bool.true_and]
  unfold Edits.isGone
  rw [hinside, Document.any_isOutermost, h.isReplaced, decide_eq_false (lt_irrefl n),
    Bool.false_and, Bool.false_or]

theorem Unwraps.applyAll_eq (h : es.Unwraps d tag n) :
    es.applyAll d (d.unwrapCalls tag) [n] =
      if d.isOutermost tag n then es.modify n (EditCall.unwrap.record ·) else es := by
  have haccepts : es.accepts d n EditCall.unwrap.target =
      !(d.ancestors n).any (d.isNamed tag) := congrArg (!·) h.isGone
  unfold applyAll
  rw [List.foldl_cons, List.foldl_nil, Document.unwrapCalls]
  by_cases hnamed : d.isNamed tag n
  · have hout : d.isOutermost tag n = !(d.ancestors n).any (d.isNamed tag) := by
      rw [Document.isOutermost, hnamed, Bool.true_and, List.not_any_eq_all_not]
    rw [if_pos hnamed, List.foldl_cons, List.foldl_nil, apply, haccepts, hout]
  · have hout : ¬ d.isOutermost tag n := fun h => hnamed (Document.isOutermost_iff.1 h).1
    rw [if_neg hnamed, if_neg hout, List.foldl_nil]

theorem Unwraps.next (h : es.Unwraps d tag n) (hn : n < d.nodes.size) :
    (es.applyAll d (d.unwrapCalls tag) [n]).Unwraps d tag (n + 1) := by
  have hlt {i : Nat} (hi : i ≠ n) : i < n ↔ i < n + 1 :=
    (Nat.lt_succ_iff_lt_or_eq.trans (or_iff_left hi)).symm
  rw [h.applyAll_eq]
  by_cases hout : d.isOutermost tag n
  · rw [if_pos hout]
    refine ⟨Array.size_modify.trans h.size, fun i => ?_⟩
    rw [get?_modify _ _ _ _ (h.size ▸ hn)]
    by_cases hi : i = n
    · subst hi
      rw [if_pos rfl, if_pos ⟨Nat.lt_succ_self i, hout⟩, h.get i,
        if_neg fun hbefore => lt_irrefl i hbefore.1]
      rfl
    · rw [if_neg hi, h.get i]
      exact if_congr (and_congr_left' (hlt hi)) rfl rfl
  · rw [if_neg hout]
    refine ⟨h.size, fun i => ?_⟩
    rw [h.get i]
    exact if_congr (and_congr_left fun hi => hlt fun heq => hout (heq ▸ hi)) rfl rfl

theorem unwraps_range (tag : String) (hn : n ≤ d.nodes.size) :
    ((none d).applyAll d (d.unwrapCalls tag) (List.range n)).Unwraps d tag n := by
  induction n with
  | zero =>
      refine ⟨Array.size_replicate, fun i => ?_⟩
      rw [if_neg fun hlt => Nat.not_lt_zero i hlt.1]
      exact get?_none d i
  | succ n ih =>
      rw [List.range_succ, applyAll, List.foldl_append]
      exact (ih (Nat.le_of_succ_le hn)).next hn

end Edits

namespace Document

variable {o : ParseOptions} {text tag : String} {d : Document} {es : Edits} {id : Nat}

/-- Once all nodes were visited, the outermost elements of the pattern are the topmost edits. -/
theorem topmost_of_unwraps (h : es.Unwraps d tag d.nodes.size) :
    d.topmost es = d.outermost tag := by
  refine List.filter_congr fun id hid => ?_
  rw [Bool.eq_iff_iff, isTopmost_iff, h.get id]
  have hlt : id < d.nodes.size := List.mem_range.1 hid
  constructor
  · rintro ⟨hsome, -⟩
    by_contra hout
    rw [if_neg fun hand => hout hand.2] at hsome
    cases hsome
  · intro hout
    refine ⟨by rw [if_pos ⟨hlt, hout⟩]; rfl, fun p hp => ?_⟩
    rw [h.get p, if_neg]
    rintro ⟨-, hpout⟩
    have hfree := (isOutermost_iff.1 hout).2 p hp
    rw [(isOutermost_iff.1 hpout).1] at hfree
    cases hfree

theorem writeEdited_unwrapping (id : Nat) (ws : List Written) :
    d.writeEdited .unwrapping id ws = (d.contentOnly id ws).flatMap (·.pieces) := by
  unfold writeEdited writeBody NodeEdits.unwrapping EditCall.record
  simp [NodeEdits.empty, NewNode.piecesOf]

theorem flatMap_contentOnly (hid : d.kind id = .element) :
    (d.contentOnly id ((d.children id).map d.plainWritten)).flatMap (·.pieces) =
      (d.content id).map fun c => .plain (d.text c) := by
  unfold contentOnly
  rw [hid]
  simp only
  rw [List.filter_map, List.flatMap_map, List.map_eq_flatMap]
  rfl

theorem pieces_of_unwraps (hw : d.WellFormed) (h : es.Unwraps d tag d.nodes.size)
    (hid : id ∈ d.outermost tag) :
    d.pieces es id = (d.content id).map fun c => .plain (d.text c) := by
  obtain ⟨hlt, hout⟩ := List.mem_filter.1 hid
  have hnamed := (isOutermost_iff.1 hout).1
  have hkind : d.kind id = .element := by
    unfold isNamed at hnamed
    exact eq_of_beq (Bool.and_eq_true_iff.1 hnamed).1
  have hinside {x : Nat} (hx : id ∈ d.ancestors x) : es.get? x = none := by
    rw [h.get x, if_neg]
    rintro ⟨-, hxout⟩
    rw [(isOutermost_iff.1 hxout).2 id hx] at hnamed
    cases hnamed
  have hedit : es.get? id = some .unwrapping := by
    rw [h.get id, if_pos ⟨List.mem_range.1 hlt, hout⟩]
  unfold pieces
  rw [tree_eq hw.forward, write, hedit]
  simp only
  rw [writeAll_below hw fun x hx => hinside hx, writeEdited_unwrapping, flatMap_contentOnly hkind]

theorem concat_map_plain (f : Nat → String) (ids : List Nat) :
    Piece.concat (ids.map fun id => .plain (f id)) = String.join (ids.map f) := by
  induction ids with
  | nil => rw [List.map_nil, List.map_nil, Piece.concat, String.join_nil]
  | cons id ids ih =>
      rw [List.map_cons, List.map_cons, Piece.concat, ih, String.join_cons, Piece.plain]

/-- The recipe puts the content of every outermost element of the pattern in its place. Elements of
the pattern inside another one are kept with their tags, as part of the content of that one. -/
theorem follow_unwrapElements (h : parse o text = .ok d)
    (hx : ∀ x ∈ o.lexerExtensions, x.OnBoundaries (.ofString text)) (tag : String) :
    d.follow (.unwrapElements tag) =
      d.replacing (fun id => String.join ((d.content id).map d.text)) 0 (d.outermost tag) := by
  obtain ⟨hw, hg, hwf, -⟩ := layout_of_parse h hx
  have hedits := edits_visit hg.linked hg.preordered (records_unwrapElements d tag)
  have hunwraps := Edits.unwraps_range tag (le_refl d.nodes.size)
  rw [← hedits] at hunwraps
  have htop := topmost_of_unwraps hunwraps
  have hpieces (id : Nat) (hid : id ∈ d.outermost tag) := pieces_of_unwraps hwf hunwraps hid
  unfold follow transform
  rw [edit_eq_replacing hw hg hwf.covers.2, htop]
  · refine replacing_congr fun id hid => ?_
    rw [hpieces id hid, concat_map_plain]
  · rw [htop]
    intro id hid p hp
    rw [hpieces id hid] at hp
    obtain ⟨c, -, rfl⟩ := List.mem_map.1 hp
    rfl

example : (parse (.ofDirectives []) "<b><b>x</b></b>").toOption.map
    (·.follow (.unwrapElements "b")) = some "<b>x</b>" := by cbv

end Document
end BladeTree
