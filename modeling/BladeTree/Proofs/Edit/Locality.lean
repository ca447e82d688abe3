import BladeTree.Edit.Visitor
import BladeTree.Proofs.Edit.Woven
import Mathlib

namespace BladeTree
namespace Document

variable {d : Document} {o : ParseOptions} {text : String}

theorem above_root (hl : d.outline.Linked) {x : Nat} (hx : x < d.nodes.size) :
    d.outline.Above Builder.root x := by
  induction x using Nat.strong_induction_on with
  | _ x ih =>
      rcases Nat.eq_zero_or_pos x with rfl | hpos
      · exact .refl
      · obtain ⟨p, hp⟩ := hl.rooted x hpos hx
        have hlt := (hl.below x p hp).1
        exact (ih p hlt (hlt.trans hx)).tail hp

theorem above_root_iff (hl : d.outline.Linked) (x : Nat) :
    d.outline.Above Builder.root x ↔ Builder.root ≤ x ∧ x ≤ d.nodes.size - 1 := by
  have hnonempty : 0 < d.nodes.size := hl.nonempty
  refine ⟨fun hx => ⟨Nat.zero_le x, ?_⟩, fun ⟨_, hx⟩ => above_root hl (by omega)⟩
  have : x < d.nodes.size := hx.lt_size hl hnonempty
  omega

theorem get?_of_isEmpty {es : Edits} (hempty : es.isEmpty) (id : Nat) : es.get? id = none := by
  rw [Edits.get?]
  cases hslot : es.slots[id]? with
  | none => rfl
  | some slot =>
      have hnone := Array.all_eq_true'.1 hempty slot (Array.mem_of_getElem? hslot)
      exact Option.isNone_iff_eq_none.1 hnone

theorem topmost_eq_nil_of_isEmpty {es : Edits} (hempty : es.isEmpty) : d.topmost es = [] := by
  apply List.filter_eq_nil_iff.2
  intro id _ htop
  have hsome := (isTopmost_iff.1 htop).1
  rw [get?_of_isEmpty hempty] at hsome
  cases hsome

theorem Woven.eq_source {es : Edits} {out : String} (h : d.Woven es 0 [] out) :
    out = d.source.text := by
  cases h with
  | nil => exact d.source.slice_all

section Growing

variable (hw : d.toTokenized.Whole) (hg : (BladeTree.outline d.nodes).Growing [] d.size)
  (hcovers : (d.node Builder.root).tokenEnd = d.size)
include hw hg hcovers

theorem laid_root (es : Edits) : d.Laid es 0 d.size (d.topmost es) (d.pieces es Builder.root) := by
  have hl : d.outline.Linked := hg.linked
  have hstart : (d.node Builder.root).tokenStart = 0 := hg.origin
  have hnonempty : 0 < d.nodes.size := hl.nonempty
  have hlast : d.nodes.size - 1 < d.nodes.size := by omega
  have hfree : ∀ p ∈ d.ancestors Builder.root, es.get? p = none := by
    intro p hp
    obtain ⟨hp, hne⟩ := (mem_ancestors_iff hl p Builder.root).1 hp
    exact absurd (Nat.le_zero.1 (hp.le hl)) hne
  have hlaid := laid_pieces hw hg hlast (above_root_iff hl) hfree
  have hrange : List.range' Builder.root (d.nodes.size - 1 + 1 - Builder.root) =
      List.range d.nodes.size := by
    rw [List.range_eq_range', Nat.sub_add_cancel hnonempty]
    rfl
  rwa [hstart, hcovers, hrange] at hlaid

theorem woven_of_growing (es : Edits) : d.Woven es 0 (d.topmost es) (d.edit es) := by
  rw [edit]
  by_cases hempty : es.isEmpty
  · rw [if_pos hempty, topmost_eq_nil_of_isEmpty hempty, ← d.source.slice_all]
    exact .nil
  · obtain ⟨s, y, -, hnone, hwoven, htext⟩ := (laid_root hw hg hcovers es).woven hw hg .empty
    rw [hw.offset_zero] at hwoven
    rw [if_neg hempty]
    have hjoin : Piece.join (d.pieces es Builder.root) = y := by
      rw [Piece.join, htext, hnone rfl]
      exact (congrArg (· ++ y) String.append_empty).trans String.empty_append
    exact hjoin ▸ hwoven

end Growing

/-- Rewriting is local: the outermost edited nodes are replaced, each by what its own tree and the
edits in it tell, and everything around them is kept. -/
theorem edit_woven (h : parse o text = .ok d)
    (hx : ∀ x ∈ o.lexerExtensions, x.OnBoundaries (.ofString text)) (es : Edits) :
    d.Woven es 0 (d.topmost es) (d.edit es) ∧ (d.topmost es = [] → d.edit es = text) := by
  obtain ⟨lexed, b, hsound, hbuilt, hd⟩ := exists_built_of_parse h
  have hw : d.toTokenized.Whole := hd ▸ hsound.tokenized_whole hx
  have hg : (BladeTree.outline d.nodes).Growing [] d.size := hd ▸ hbuilt.growing
  have hcovers : (d.node Builder.root).tokenEnd = d.size := hd ▸ hbuilt.covers
  have hsource : d.source.text = text := hd ▸ rfl
  have hwoven := woven_of_growing hw hg hcovers es
  exact ⟨hwoven, fun hnone => (hnone ▸ hwoven).eq_source.trans hsource⟩

def nestedEdits (d : Document) : Edits :=
  (((Edits.none d).apply d 2 .remove).apply d 5 (.safeSurround "@if(b)" "@endif")).apply d 6 .remove

theorem edit_woven_nested : ∃ d,
    parse (.ofDirectives ["if", "endif"])
      "<ul>@if(a)<br></p>" = .ok d ∧ d.topmost (nestedEdits d) = [2, 5] ∧
      d.Woven (nestedEdits d) 0 (d.topmost (nestedEdits d)) (d.edit (nestedEdits d)) := by
  have hread : (parse (.ofDirectives ["if", "endif"])
      "<ul>@if(a)<br></p>").toOption.map (fun d => d.topmost (nestedEdits d)) =
      some [2, 5] := by cbv
  obtain ⟨d, hd, htopmost⟩ := Option.map_eq_some_iff.1 hread
  cases hparse : parse (.ofDirectives ["if", "endif"]) "<ul>@if(a)<br></p>" with
  | error e =>
      rw [hparse] at hd
      cases hd
  | ok d' =>
      rw [hparse] at hd
      obtain rfl : d' = d := Option.some.inj hd
      exact ⟨d', rfl, htopmost, (edit_woven hparse (fun _ hx => absurd hx List.not_mem_nil) _).1⟩

end Document
end BladeTree
